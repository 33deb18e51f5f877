import Anp.Lib.Cyclic

/-!
# Fsm — sequence numbers, states and segment flags

`netinet/tcp_seq.h`, `netinet/tcp_fsm.h` and the flags of `netinet/tcp.h`.
-/

namespace Anp

open Cyclic

/-- `tcp_seq`, a number modulo `2^32`; `SEQ_LT` and its siblings compare the signed difference,
which is `Cyclic.gap`. -/
abbrev Seq := BitVec 32

/-! ## `tcp_seq.h` -/

def seqLT (a b : Seq) : Bool := decide (gap a b < 0)

def seqLEQ (a b : Seq) : Bool := decide (gap a b ≤ 0)

def seqGT (a b : Seq) : Bool := decide (0 < gap a b)

def tcpIssincr : Nat := 125 * 1024

theorem gap_adv {iss : Seq} {x y : Int} (hlo : -2147483648 ≤ x - y) (hhi : x - y < 2147483648) :
    gap (adv iss x) (adv iss y) = x - y :=
  gap_adv_adv iss (by norm_num; omega) (by norm_num; omega)

theorem gap_range (a b : Seq) : -2147483648 ≤ gap a b ∧ gap a b < 2147483648 := by
  have hlo := BitVec.le_toInt (a - b)
  have hhi := BitVec.toInt_lt (x := a - b)
  unfold gap
  exact ⟨hlo, hhi⟩

/-! ## `tcp_fsm.h` -/

/-- `t_state`, in the order of the constants. -/
inductive TcpState where
  | closed | listen | synSent | synReceived | established | closeWait | finWait1 | closing
  | lastAck | finWait2 | timeWait
  deriving DecidableEq, Repr

def TcpState.toNat : TcpState → Nat
  | .closed => 0
  | .listen => 1
  | .synSent => 2
  | .synReceived => 3
  | .established => 4
  | .closeWait => 5
  | .finWait1 => 6
  | .closing => 7
  | .lastAck => 8
  | .finWait2 => 9
  | .timeWait => 10

/-- `TCPS_HAVERCVDSYN(s)`. -/
def haveRcvdSyn (s : TcpState) : Bool := decide (TcpState.synReceived.toNat ≤ s.toNat)

/-- `TCPS_HAVERCVDFIN(s)`. -/
def haveRcvdFin (s : TcpState) : Bool := decide (TcpState.timeWait.toNat ≤ s.toNat)

/-- The flag byte of a segment. -/
structure Flags where
  fin : Bool := false
  syn : Bool := false
  rst : Bool := false
  push : Bool := false
  ack : Bool := false
  urg : Bool := false
  deriving DecidableEq, Repr

/-- The flags a state sends. -/
def tcpOutflags : TcpState → Flags
  | .closed => { rst := true, ack := true }
  | .listen => {}
  | .synSent => { syn := true }
  | .synReceived => { syn := true, ack := true }
  | .established | .closeWait => { ack := true }
  | .finWait1 | .closing | .lastAck => { fin := true, ack := true }
  | .finWait2 | .timeWait => { ack := true }

/-- The states that send a FIN: the user has closed and our FIN is not acknowledged. -/
def finState (s : TcpState) : Bool := (tcpOutflags s).fin

end Anp
