import UpAndDownESP.App.Endpoint
import UpAndDownESP.Proofs.Sending
import UpAndDownESP.System.Transport

namespace UpAndDownESP.Proofs.Transport
open Sending

variable {L T σ : Type}

/-! ### One frame, with any listener and any data -/

section
variable {tf : TinyFrame L T} {listener : Option L}

/-- The length is announced and nothing more: the lock stays taken. -/
theorem sendFrame_multipart (hi : Idle tf.tx) (h : listener ≠ none → ¬ NoSlot tf) {msg : TfMsg}
    (hdata : msg.data = none) (hlen : msg.len ≠ 0) (ftimeout : Option T) (timeout : Nat) :
    ∃ tf', tfSendFrame tf msg listener ftimeout timeout = (true, tf', []) ∧
      tf'.tx.softLock = true := by
  obtain ⟨nextId, slots, count, hbegin⟩ := begin_accepted hi h msg ftimeout timeout
  let tf' : TinyFrame L T := { tf with
    nextId := nextId, tx := opened tf.tx (headId tf msg) msg.type msg.len, idListeners := slots,
    countIdLst := count }
  refine ⟨tf', ?_, rfl⟩
  simp only [tfSendFrame]
  rw [hbegin]
  simp only [hdata, hlen, ne_eq, not_true_eq_false, or_self, if_false]
  rfl

theorem sendFrame_refused (hi : Idle tf.tx) (h : NoSlot tf) (msg : TfMsg) (l : L)
    (ftimeout : Option T) (timeout : Nat) :
    ∃ nextId tx, Idle tx ∧ tfSendFrame tf msg (some l) ftimeout timeout =
      (false, { tf with nextId := nextId, tx := tx }, []) := by
  obtain ⟨nextId, tx, hidle, hbegin⟩ := begin_refused hi h msg l ftimeout timeout
  refine ⟨nextId, tx, hidle, ?_⟩
  simp only [tfSendFrame]
  rw [hbegin]

/-- One frame with all its bytes, whatever it carries. -/
theorem sendFrame_complete (hi : Idle tf.tx) (h : listener ≠ none → ¬ NoSlot tf) {msg : TfMsg}
    (hdata : ¬ (msg.data = none ∧ msg.len ≠ 0)) (hlen : msg.len.toNat ≤ (msg.data.getD []).length)
    (ftimeout : Option T) (timeout : Nat) :
    ∃ tf' writes, tfSendFrame tf msg listener ftimeout timeout = (true, tf', writes) ∧
      Idle tf'.tx ∧
      OneFrame (frameBytes (headId tf msg) msg.type ((msg.data.getD []).take msg.len.toNat))
        writes := by
  obtain ⟨nextId, slots, count, hbegin⟩ := begin_accepted hi h msg ftimeout timeout
  obtain ⟨hone, hidle⟩ := finish_spec hi (headId tf msg) msg.type hlen
  have hbody : msg.len = 0 ∨ msg.data ≠ none := by
    by_cases hz : msg.len = 0
    · exact Or.inl hz
    · exact Or.inr fun hn => hdata ⟨hn, hz⟩
  let chunked := tfSendFrameChunk (opened tf.tx (headId tf msg) msg.type msg.len)
    (msg.data.getD []) msg.len.toNat
  let tf' : TinyFrame L T := { tf with
    nextId := nextId, tx := (tfSendFrameEnd chunked.1).1, idListeners := slots,
    countIdLst := count }
  refine ⟨tf', _, ?_, hidle, hone⟩
  simp only [tfSendFrame]
  rw [hbegin]
  simp only [if_pos hbody]
  rfl

/-- A frame that can be begun is reported as sent, whatever becomes of it. -/
theorem sendFrame_true (hi : Idle tf.tx) (h : listener ≠ none → ¬ NoSlot tf) (msg : TfMsg)
    (ftimeout : Option T) (timeout : Nat) :
    (tfSendFrame tf msg listener ftimeout timeout).1 = true := by
  obtain ⟨nextId, slots, count, hbegin⟩ := begin_accepted hi h msg ftimeout timeout
  simp only [tfSendFrame]
  rw [hbegin]
  simp only
  split <;> rfl

end

/-! ### Calls -/

/-- The message a call hands to TinyFrame. -/
def message : TransportCall → TfMsg
  | .send msgType arg | .query msgType arg .. =>
    { tfClearMsg with type := msgType, data := arg.data, len := arg.len }
  | .respond originalMsg arg =>
    { originalMsg with data := arg.data, len := arg.len, isResponse := true }

def listener : TransportCall → Option Listener
  | .query _ _ onResponse .. => onResponse
  | .send .. | .respond .. => none

def timeoutListener : TransportCall → Option TimeoutListener
  | .query _ _ _ onTimeout _ => onTimeout
  | .send .. | .respond .. => none

def timeoutTicks : TransportCall → Nat
  | .query _ _ _ _ ticks => ticks
  | .send .. | .respond .. => 0

/-- The three functions differ in the message they make and in the listener. -/
theorem callTransport_eq (s : Handler σ) (c : TransportCall) :
    callTransport s c = s.sent c.type c.arg.payload
      (tfSendFrame s.tf (message c) (listener c) (timeoutListener c) (timeoutTicks c)) := by
  cases c <;> rfl

theorem message_fields (c : TransportCall) :
    (message c).data = c.arg.data ∧ (message c).len = c.arg.len ∧ (message c).type = c.type := by
  cases c <;> exact ⟨rfl, rfl, rfl⟩

/-- What is expected of a call from `s`. -/
structure Clean (s : Handler σ) (c : TransportCall) : Prop where
  /-- True means one complete frame with all the bytes it announces, in some writes. -/
  accepted : (callTransport s c).1 = true → ∃ id bufs, bufs ≠ [] ∧
    writesOf (callTransport s c).2.wire = writesOf s.wire ++ bufs ∧
    c.arg.payload.length = c.arg.len.toNat ∧
    bufs.flatten = Spec.frame (id, c.type, c.arg.payload)
  /-- False means nothing written and no listener registered. -/
  refused : (callTransport s c).1 = false →
    writesOf (callTransport s c).2.wire = writesOf s.wire ∧
    (callTransport s c).2.tf.idListeners = s.tf.idListeners ∧
    (callTransport s c).2.tf.typeListeners = s.tf.typeListeners ∧
    (callTransport s c).2.tf.genericListeners = s.tf.genericListeners
  free : (callTransport s c).2.tf.tx.softLock = false
  next : ∀ msgType (arg : Argument),
    (tfTransportSend msgType arg.data arg.len (callTransport s c).2).1 = true

/-- A query with a listener that finds no slot for it. -/
def Refused (s : Handler σ) (c : TransportCall) : Prop := listener c ≠ none ∧ NoSlot s.tf

/-- The call opens no multi-part frame. -/
def Closed (s : Handler σ) (c : TransportCall) : Prop := ¬ c.arg.multipart ∨ Refused s c

theorem writesOf_sent (s : Handler σ) (msgType : UInt8) (data : List UInt8)
    (r : Bool × TinyFrame Listener TimeoutListener × List (List UInt8)) :
    writesOf (s.sent msgType data r).2.wire = writesOf s.wire ++ r.2.2 := by
  have hwrites : ∀ bufs : List (List UInt8), writesOf (bufs.map WireEvent.write) = bufs := by
    intro bufs
    induction bufs with
    | nil => rfl
    | cons b bufs ih => exact congrArg (b :: ·) ih
  simp only [Handler.sent, writesOf_append, hwrites]
  simp [writesOf]

theorem next_send {s : Handler σ} (hi : Idle s.tf.tx) (msgType : UInt8) (arg : Argument) :
    (tfTransportSend msgType arg.data arg.len s).1 = true :=
  sendFrame_true hi (fun hn => absurd rfl hn) _ none 0

theorem payload_length (arg : Argument) (h : ¬ arg.multipart) :
    arg.payload.length = arg.len.toNat ∧ arg.len.toNat ≤ (arg.data.getD []).length := by
  have hle : arg.len.toNat ≤ (arg.data.getD []).length := by
    cases hd : arg.data with
    | none =>
      have hz : arg.len = 0 := by
        by_contra hne
        exact h ⟨hd, hne⟩
      rw [hz]
      exact Nat.zero_le _
    | some bytes => exact arg.readable bytes hd
  exact ⟨List.length_take_of_le hle, hle⟩

section
variable {s : Handler σ} {c : TransportCall} (hi : Idle s.tf.tx)
include hi

theorem clean_of_refused (h : Refused s c) :
    Clean s c ∧ Idle (callTransport s c).2.tf.tx := by
  obtain ⟨hlistener, hfull⟩ := h
  obtain ⟨l, hl⟩ := Option.ne_none_iff_exists'.mp hlistener
  obtain ⟨nextId, tx, hidle, hsend⟩ :=
    sendFrame_refused hi hfull (message c) l (timeoutListener c) (timeoutTicks c)
  rw [← hl] at hsend
  have hcall := callTransport_eq s c
  rw [hsend] at hcall
  have hidle' : Idle (callTransport s c).2.tf.tx := by
    rw [hcall]
    exact hidle
  refine ⟨⟨?_, ?_, hidle'.free, next_send hidle'⟩, hidle'⟩
  · intro htrue
    rw [hcall] at htrue
    cases htrue
  · intro _
    rw [hcall, writesOf_sent]
    exact ⟨List.append_nil _, rfl, rfl, rfl⟩

theorem clean_of_complete (hslot : ¬ Refused s c) (h : ¬ c.arg.multipart) :
    Clean s c ∧ Idle (callTransport s c).2.tf.tx := by
  obtain ⟨hdata, hlen, htype⟩ := message_fields c
  obtain ⟨hpayload, hle⟩ := payload_length c.arg h
  have hbody : ¬ ((message c).data = none ∧ (message c).len ≠ 0) := by
    rw [hdata, hlen]
    exact h
  obtain ⟨tf', writes, hsend, hidle, hone⟩ :=
    sendFrame_complete hi (not_and.mp hslot) hbody (by rw [hdata, hlen]; exact hle)
      (timeoutListener c) (timeoutTicks c)
  rw [hdata, hlen, htype] at hone
  have hcall := callTransport_eq s c
  rw [hsend] at hcall
  have hidle' : Idle (callTransport s c).2.tf.tx := by
    rw [hcall]
    exact hidle
  refine ⟨⟨?_, ?_, hidle'.free, next_send hidle'⟩, hidle'⟩
  · intro _
    have hshort : c.arg.payload.length < 65536 := by
      rw [hpayload]
      exact c.arg.len.toNat_lt
    refine ⟨_, writes, ?_, ?_, hpayload, hone.bytes.trans (frameBytes_eq _ _ hshort)⟩
    · intro hnil
      have hbytes := congrArg List.length hone.bytes
      rw [hnil, frameBytes_length] at hbytes
      change 0 = _ at hbytes
      omega
    · rw [hcall, writesOf_sent]
  · intro hfalse
    rw [hcall] at hfalse
    cases hfalse

theorem dirty_of_multipart (hslot : ¬ Refused s c) (h : c.arg.multipart) : ¬ Clean s c := by
  obtain ⟨hdata, hlen, _⟩ := message_fields c
  obtain ⟨hnull, hne⟩ := h
  obtain ⟨tf', hsend, hlocked⟩ :=
    sendFrame_multipart hi (not_and.mp hslot) (hdata.trans hnull) (by rw [hlen]; exact hne)
      (timeoutListener c) (timeoutTicks c)
  intro hclean
  have hfree := hclean.free
  rw [callTransport_eq, hsend] at hfree
  cases hlocked.symm.trans hfree

/-- A call is clean just when it opens no multi-part frame. -/
theorem clean_iff_closed : Clean s c ↔ Closed s c := by
  constructor
  · intro hclean
    by_contra hopen
    obtain ⟨hmulti, hslot⟩ := not_or.mp hopen
    exact dirty_of_multipart hi hslot (not_not.mp hmulti) hclean
  · intro hclosed
    by_cases hslot : Refused s c
    · exact (clean_of_refused hi hslot).1
    · exact (clean_of_complete hi hslot (hclosed.resolve_right hslot)).1

theorem idle_of_closed (hclosed : Closed s c) : Idle (transportStep s c).tf.tx := by
  by_cases hslot : Refused s c
  · exact (clean_of_refused hi hslot).2
  · exact (clean_of_complete hi hslot (hclosed.resolve_right hslot)).2

end

theorem idle_init (s : Handler σ) : Idle (tfTransportInit s).tf.tx := ⟨rfl, rfl⟩

/-- In a run of calls from `tf_transport_init` all are clean just when none, but for
queries whose listener finds no slot, passes NULL with a length. -/
theorem calls_clean_iff (s : Handler σ) (calls : List TransportCall) :
    Runs.Meets transportStep Clean (tfTransportInit s) calls ↔
      Runs.Meets transportStep Closed (tfTransportInit s) calls := by
  apply Runs.Meets.iff_of_step (I := fun s : Handler σ => Idle s.tf.tx)
  · exact fun s c hi => clean_iff_closed hi
  · exact fun s c hi hclosed => idle_of_closed hi hclosed
  · exact idle_init s

/-- An e-stop without data and with a length of one claims the transmitter for good. -/
def nullEstop : TransportCall := .send msgTypeEstop ⟨none, 1, by simp⟩

theorem null_estop_unclean :
    ¬ Runs.Meets transportStep Clean (tfTransportInit (powerOn fun _ => 0)) [nullEstop] := by
  intro h
  exact absurd h.1.free (by decide)

end UpAndDownESP.Proofs.Transport
