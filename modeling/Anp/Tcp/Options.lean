import Anp.Tcp.Timer

/-!
# Options — TCP options of a received segment

`tcp_dooptions` of `netinet/tcp_input.c`. The option area is the front of a longer piece of
memory: `cp[1]` and the option values are read wherever they lie, also past the `cnt` bytes that
belong to the header.
-/

namespace Anp

def tcpoptEol : Byte := 0
def tcpoptNop : Byte := 1
def tcpoptMaxseg : Byte := 2
def tcpoptWindow : Byte := 3
def tcpoptTimestamp : Byte := 8

/-- A timestamp option: `ts_val` and `ts_ecr`. -/
abbrev Tstamp := Nat × Nat

/-- The 16-bit and 32-bit numbers in network order at a place in memory. -/
def getU16 (cp : List Byte) (i : Nat) : Nat := (cp.getD i 0).toNat * 256 + (cp.getD (i + 1) 0).toNat

def getU32 (cp : List Byte) (i : Nat) : Nat := getU16 cp i * 65536 + getU16 cp (i + 2)

/-- The switch of `tcp_dooptions` on one option; `syn` is `TH_SYN` of the header. -/
def dooption (s : Sys) (ts : Option Tstamp) (cp : List Byte) (opt : Byte) (optlen : Nat)
    (syn : Bool) : Option (Sys × Option Tstamp) :=
  if opt = tcpoptMaxseg ∧ optlen = 4 ∧ syn then
    (tcpMss s (getU16 cp 2)).map fun r => (r.2, ts)
  else if opt = tcpoptWindow ∧ optlen = 3 ∧ syn then
    some ({ s with tp := { s.tp with
      tfRcvdScale := true, requestedSScale := min (cp.getD 2 0).toNat 14 } }, ts)
  else if opt = tcpoptTimestamp ∧ optlen = 10 then
    let v := getU32 cp 2
    let s := if syn then
        { s with tp := { s.tp with tfRcvdTstmp := true, tsRecent := v, tsRecentAge := s.w.now } }
      else s
    some (s, some (v, getU32 cp 6))
  else some (s, ts)

/-- The length of the option at `cp`, as its own length byte gives it. -/
def optLen (cp : List Byte) : Nat := if cp.getD 0 0 = tcpoptNop then 1 else (cp.getD 1 0).toNat

/-- The loop of `tcp_dooptions`; an option is at least one byte, so `cnt` rounds are enough. -/
def dooptionsLoop (syn : Bool) :
    Nat → Sys → Option Tstamp → List Byte → Int → Option (Sys × Option Tstamp)
  | 0, s, ts, _, _ => some (s, ts)
  | n + 1, s, ts, cp, cnt =>
    if cnt ≤ 0 ∨ cp.getD 0 0 = tcpoptEol ∨ optLen cp = 0 then some (s, ts)
    else (dooption s ts cp (cp.getD 0 0) (optLen cp) syn).bind fun r =>
      dooptionsLoop syn n r.1 r.2 (cp.drop (optLen cp)) (cnt - optLen cp)

/-- `tcp_dooptions(tp, cp, cnt, ti, ...)`; `none` is the division by zero of `tcp_mss`. -/
def tcpDooptions (s : Sys) (ts : Option Tstamp) (cp : List Byte) (cnt : Nat) (syn : Bool) :
    Option (Sys × Option Tstamp) :=
  dooptionsLoop syn cnt s ts cp cnt

/-- The quick retrieval of a timestamp option formatted as RFC 1323 recommends. -/
def quickTstamp (cp : List Byte) (cnt : Nat) (syn : Bool) : Option Tstamp :=
  if (cnt = 12 ∨ (12 < cnt ∧ cp.getD 12 0 = tcpoptEol)) ∧ getU32 cp 0 = 0x0101080a ∧ !syn then
    some (getU32 cp 4, getU32 cp 8)
  else none

end Anp
