import UpAndDownESP.Lib.Runs
import UpAndDownESP.TinyFrame.Parser

namespace UpAndDownESP

/-! The other end of the wire, with the same configuration: an instance whose one
generic listener keeps every message it is handed. -/

structure Peer where
  tf : TinyFrame Unit Empty
  received : List TfMsg

def recorder : Callbacks Unit Empty (List TfMsg) where
  fn _ msg log := (.stay, log ++ [msg])
  fnTimeout e := e.elim

/-- The slave with its listener added, its parser as given. -/
def listening (parser : Parser) : Peer where
  tf := { (tfAddGenericListener (tfInitStatic Unit Empty .slave) ()).2 with parser := parser }
  received := []

inductive PeerAct where
  | accept (chunk : List UInt8)
  | tick

def peerStep (p : Peer) : PeerAct → Peer
  | .accept chunk =>
    let (tf, log) := tfAccept recorder p.tf chunk p.received
    ⟨tf, log⟩
  | .tick =>
    let (tf, log) := tfTick recorder p.tf p.received
    ⟨tf, log⟩

/-- No byte of the action finds a frame under way whose timeout has run out. -/
def NoTimeout (p : Peer) : PeerAct → Prop
  | .accept chunk =>
    chunk = [] ∨ p.tf.parser.state = .sof ∨ p.tf.parser.parserTimeoutTicks < tfParserTimeoutTicks
  | .tick => True

end UpAndDownESP
