import Mathlib.Data.List.Basic
import Mathlib.Tactic.Common

/-!
# Framing — frames on a character line by stuffing

A frame goes out as its characters with every `fend` and `fesc` among them stuffed into two
characters, and a closing `fend`. The deframer takes one character at a time and holds at most
`cap` of them.
-/

namespace Framing

/-- The end of a frame, the escape, and what stands for each of them behind an escape. -/
structure Marks (α : Type*) where
  fend : α
  fesc : α
  tend : α
  tesc : α
  fend_ne_fesc : fend ≠ fesc
  tend_ne_fend : tend ≠ fend
  tend_ne_fesc : tend ≠ fesc
  tend_ne_tesc : tend ≠ tesc
  tesc_ne_fend : tesc ≠ fend
  tesc_ne_fesc : tesc ≠ fesc

/-- The receiver between two characters: what it has of the frame, whether an escape came last,
whether the frame is to be dropped. -/
structure Deframer (α : Type*) where
  acc : List α
  esc : Bool
  bad : Bool

def Deframer.fresh {α : Type*} : Deframer α := ⟨[], false, false⟩

variable {α : Type*} [DecidableEq α] (k : Marks α)

/-! ## Sending -/

/-- What one character becomes. -/
def Marks.stuffChar (c : α) : List α :=
  if c = k.fesc then [k.fesc, k.tesc] else if c = k.fend then [k.fesc, k.tend] else [c]

/-- The characters of a frame as they go on the line. -/
def Marks.stuff (p : List α) : List α := p.flatMap k.stuffChar

/-- Frames on the line; a frame marked `true` has an extra `fend` before it. -/
def Marks.wire (l : List (Bool × List α)) : List α :=
  l.flatMap fun x => (if x.1 then [k.fend] else []) ++ k.stuff x.2 ++ [k.fend]

theorem stuff_append (p q : List α) : k.stuff (p ++ q) = k.stuff p ++ k.stuff q :=
  List.flatMap_append

theorem wire_concat (l : List (Bool × List α)) (idle : Bool) (p : List α) :
    k.wire (l ++ [(idle, p)]) =
      k.wire l ++ (if idle then [k.fend] else []) ++ k.stuff p ++ [k.fend] := by
  simp [Marks.wire, List.flatMap_append]

theorem stuff_plain {p : List α} (h : ∀ c ∈ p, c ≠ k.fesc ∧ c ≠ k.fend) : k.stuff p = p := by
  induction p with
  | nil => rfl
  | cons c p ih =>
    obtain ⟨h1, h2⟩ := h c List.mem_cons_self
    have hp := ih fun d hd => h d (List.mem_cons_of_mem _ hd)
    have hc : k.stuffChar c = [c] := by rw [Marks.stuffChar, if_neg h1, if_neg h2]
    show k.stuffChar c ++ k.stuff p = c :: p
    rw [hc, hp]
    rfl

/-! ## Receiving -/

/-- The character a received one stands for. -/
def Marks.unstuff (esc : Bool) (c : α) : α :=
  if esc then if c = k.tesc then k.fesc else if c = k.tend then k.fend else c else c

/-- One character, and the frame it completes, if any. A frame that does not fit is dropped up to
the next `fend`. -/
def Deframer.step (cap : Nat) (d : Deframer α) (c : α) : Deframer α × List (List α) :=
  if c = k.fesc then ({ d with esc := true }, [])
  else if c = k.fend then (.fresh, if d.bad then [] else [d.acc])
  else if d.acc.length < cap then
    ({ d with acc := d.acc ++ [k.unstuff d.esc c], esc := false }, [])
  else (⟨[], false, true⟩, [])

/-- The receiver on a list of characters. -/
def Deframer.run (cap : Nat) : Deframer α → List α → Deframer α × List (List α)
  | d, [] => (d, [])
  | d, c :: cs =>
    ((run cap (d.step k cap c).1 cs).1, (d.step k cap c).2 ++ (run cap (d.step k cap c).1 cs).2)

theorem run_append (cap : Nat) (d : Deframer α) (a b : List α) :
    d.run k cap (a ++ b) = (((d.run k cap a).1.run k cap b).1,
        (d.run k cap a).2 ++ ((d.run k cap a).1.run k cap b).2) := by
  induction a generalizing d with
  | nil => rfl
  | cons c a ih =>
    rw [List.cons_append, Deframer.run, Deframer.run, ih]
    simp only [List.append_assoc]

/-- **Resynchronisation.** Whatever came before, a `fend` leaves the deframer fresh. -/
theorem step_fend (cap : Nat) (d : Deframer α) : (d.step k cap k.fend).1 = .fresh := by
  rw [Deframer.step, if_neg k.fend_ne_fesc, if_pos rfl]

variable {cap : Nat}

theorem run_stuffChar {d : Deframer α} (c : α) (he : d.esc = false) (hl : d.acc.length < cap) :
    d.run k cap (k.stuffChar c) = ({ d with acc := d.acc ++ [c] }, []) := by
  have hfin (e : α) (b : Bool) (h1 : e ≠ k.fesc) (h2 : e ≠ k.fend) :
      ({ d with esc := b } : Deframer α).step k cap e =
        ({ d with acc := d.acc ++ [k.unstuff b e], esc := false }, []) := by
    rw [Deframer.step, if_neg h1, if_neg h2, if_pos hl]
  have hesc : d.step k cap k.fesc = ({ d with esc := true }, []) := by
    rw [Deframer.step, if_pos rfl]
  obtain ⟨acc, esc, bad⟩ := d
  cases he
  -- an escaped pair runs through the state with `esc` set, any other character does not
  by_cases h1 : c = k.fesc
  · subst h1
    have hu : k.unstuff true k.tesc = k.fesc := by simp [Marks.unstuff]
    rw [Marks.stuffChar, if_pos rfl, Deframer.run, Deframer.run, Deframer.run, hesc,
      hfin _ true k.tesc_ne_fesc k.tesc_ne_fend, hu]
    rfl
  · by_cases h2 : c = k.fend
    · subst h2
      have hu : k.unstuff true k.tend = k.fend := by simp [Marks.unstuff, k.tend_ne_tesc]
      rw [Marks.stuffChar, if_neg h1, if_pos rfl, Deframer.run, Deframer.run, Deframer.run,
        hesc, hfin _ true k.tend_ne_fesc k.tend_ne_fend, hu]
      rfl
    · rw [Marks.stuffChar, if_neg h1, if_neg h2, Deframer.run, Deframer.run, hfin _ false h1 h2]
      rfl

theorem run_stuff {d : Deframer α} (p : List α) (he : d.esc = false)
    (hl : d.acc.length + p.length ≤ cap) :
    d.run k cap (k.stuff p) = ({ d with acc := d.acc ++ p }, []) := by
  induction p generalizing d with
  | nil => simp [Marks.stuff, Deframer.run]
  | cons c p ih =>
    rw [List.length_cons] at hl
    have hc := run_stuffChar k c he (Nat.lt_of_lt_of_le (by omega) hl)
    have hp := @ih { d with acc := d.acc ++ [c] } he (by
      rw [List.length_append, List.length_singleton]; omega)
    show d.run k cap (k.stuffChar c ++ k.stuff p) = _
    rw [run_append, hc, hp]
    simp only [List.append_assoc, List.singleton_append, List.append_nil]

/-- A whole frame, with or without the extra `fend`, read by a fresh deframer. -/
theorem run_frame (idle : Bool) {p : List α} (hl : p.length ≤ cap) :
    Deframer.fresh.run k cap ((if idle then [k.fend] else []) ++ k.stuff p ++ [k.fend]) =
      (.fresh, (if idle then [[]] else []) ++ [p]) := by
  have hend (d : Deframer α) (hb : d.bad = false) :
      d.run k cap [k.fend] = (.fresh, [d.acc]) := by
    rw [Deframer.run, Deframer.run, Deframer.step, if_neg k.fend_ne_fesc, if_pos rfl, hb]
    rfl
  have hp : Deframer.fresh.run k cap (k.stuff p) = (⟨p, false, false⟩, []) :=
    run_stuff k p rfl (by simpa [Deframer.fresh] using hl)
  cases idle with
  | false =>
    rw [run_append, if_neg Bool.false_ne_true, List.nil_append, hp, hend _ rfl]
    rfl
  | true =>
    have hidle := hend .fresh rfl
    rw [run_append, run_append, if_pos rfl, hidle, hp, hend ⟨p, false, false⟩ rfl]
    rfl

/-- **Round trip.** A fresh deframer reads the frames off the line, and an empty one for each
extra `fend`. -/
theorem run_wire (l : List (Bool × List α)) (hl : ∀ x ∈ l, x.2.length ≤ cap) :
    Deframer.fresh.run k cap (k.wire l) =
      (.fresh, l.flatMap fun x => (if x.1 then [[]] else []) ++ [x.2]) := by
  induction l with
  | nil => rfl
  | cons x l ih =>
    have hx := run_frame k x.1 (hl x List.mem_cons_self)
    have hr := ih fun y hy => hl y (List.mem_cons_of_mem _ hy)
    rw [Marks.wire, List.flatMap_cons, List.flatMap_cons, run_append, hx]
    rw [Marks.wire] at hr
    rw [hr]

end Framing
