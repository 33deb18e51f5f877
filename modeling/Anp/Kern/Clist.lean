import Mathlib.Algebra.Ring.Nat
import Anp.Kern.Mbuf
import Anp.Lib.Runs

/-!
# Clist — the output queue of a serial line

`putc` and `b_to_q` of `kern/tty_subr.c`, `sys/aclist.h`, and `ser_oproc` of `uspace/serline.c`,
which takes the characters off the queue and writes them to the line. A queue is the list of its
blocks from `c_cf` to `c_cl`, with the count `c_cc` beside it; `c_cl == NULL` is the empty list.
`safe_malloc` does not return on failure, so `putc` and `b_to_q` always return 0 and the branches
their callers have for another value are never taken.
-/

namespace Anp

open List

variable {q : Clist}

def acbufsize : Nat := 56

/-- `struct acblock`: the `ac_len` characters from `ac_start` on. -/
structure Acblock where
  acStart : Nat := 0
  acData : List Byte
  deriving DecidableEq, Repr

structure Clist where
  cCc : Nat := 0
  blocks : List Acblock := []
  deriving DecidableEq, Repr

def Clist.bytes (q : Clist) : List Byte := q.blocks.flatMap (·.acData)

def putc (c : Byte) (q : Clist) : Clist :=
  if q.cCc = 0 then { cCc := q.cCc + 1, blocks := [{ acData := [c] }] }
  else
    match q.blocks.getLast? with
    | none => q
    | some acb =>
      -- is there space in the block at the end?
      if acbufsize ≤ acb.acStart + acb.acData.length then
        { cCc := q.cCc + 1, blocks := q.blocks ++ [{ acData := [c] }] }
      else
        { cCc := q.cCc + 1
          blocks := q.blocks.dropLast ++ [{ acb with acData := acb.acData ++ [c] }] }

/-- The new blocks of `b_to_q`, each with as many characters as it takes. -/
def acblocks : Nat → List Byte → List Acblock
  | 0, _ => []
  | n + 1, buf =>
    if buf = [] then []
    else { acData := buf.take acbufsize } :: acblocks n (buf.drop acbufsize)

def bToQ (buf : List Byte) (q : Clist) : Clist :=
  { cCc := q.cCc + buf.length, blocks := q.blocks ++ acblocks buf.length buf }

/-- One round of the loop of `ser_oproc`: `write` takes `n` characters of the first block, or all it
has. -/
def serWrite (n : Nat) (q : Clist) : Clist × List Byte :=
  match q.blocks with
  | [] => (q, [])
  | acb :: bs =>
    let nbytes := min n acb.acData.length
    let rest := acb.acData.drop nbytes
    ({ cCc := q.cCc - nbytes
       blocks :=
        if rest = [] then bs else { acStart := acb.acStart + nbytes, acData := rest } :: bs },
      acb.acData.take nbytes)

/-- `ser_oproc` as far as it has come after the writes `ws`, each of which may take nothing. -/
def serRounds : List Nat → Clist → Clist × List Byte
  | [], q => (q, [])
  | n :: ws, q =>
    if q.cCc = 0 then (q, [])
    else
      let w := serWrite n q
      let r := serRounds ws w.1
      (r.1, w.2 ++ r.2)

/-- `ser_oproc` to its end, if each `write` takes at least one character, and all of the block once
`ws` is at its end. -/
def serOproc (ws : List Nat) (q : Clist) : Clist × List Byte :=
  serRounds (ws.map (max 1) ++ List.replicate q.cCc acbufsize) q

/-! ## What they do to the characters -/

structure Clist.Wf (q : Clist) : Prop where
  cc : q.cCc = q.bytes.length
  full : ∀ b ∈ q.blocks, b.acData ≠ []

theorem Clist.Wf.empty : ({} : Clist).Wf := ⟨rfl, forall_mem_nil _⟩

theorem Clist.Wf.blocks_nil (h : q.Wf) (h0 : q.cCc = 0) : q.blocks = [] := by
  have hb : q.bytes = [] := length_eq_zero_iff.mp (h.cc ▸ h0)
  cases hq : q.blocks with
  | nil => rfl
  | cons b bs =>
    rw [Clist.bytes, hq, flatMap_cons, append_eq_nil_iff] at hb
    exact absurd hb.1 (h.full b (hq ▸ mem_cons_self))

theorem Clist.Wf.bytes_nil (h : q.Wf) (h0 : q.cCc = 0) : q.bytes = [] :=
  length_eq_zero_iff.mp (h.cc ▸ h0)

theorem putc_spec (c : Byte) (h : q.Wf) :
    (putc c q).Wf ∧ (putc c q).bytes = q.bytes ++ [c] := by
  by_cases h0 : q.cCc = 0
  · rw [putc, if_pos h0, h.bytes_nil h0, h0]
    exact ⟨⟨rfl, by simp⟩, rfl⟩
  · have hne : q.blocks ≠ [] := fun hb => h0 (by rw [h.cc, Clist.bytes, hb]; rfl)
    obtain ⟨bs, acb, hq⟩ : ∃ bs acb, q.blocks = bs ++ [acb] :=
      ⟨_, _, (dropLast_append_getLast hne).symm⟩
    have hcc : q.cCc = (bs.flatMap (·.acData)).length + acb.acData.length := by
      rw [h.cc, Clist.bytes, hq]
      simp
    have hfull := h.full
    rw [hq] at hfull
    rw [putc, if_neg h0, Clist.bytes, hq, getLast?_concat]
    dsimp only
    split
    · refine ⟨⟨?_, ?_⟩, ?_⟩
      · simp [Clist.bytes, hcc]
        omega
      · simpa [or_imp, forall_and] using hfull
      · simp [Clist.bytes, hq]
    · rw [dropLast_concat]
      refine ⟨⟨?_, ?_⟩, ?_⟩
      · simp [Clist.bytes, hcc]
        omega
      · intro b hb
        rcases mem_append.mp hb with hb | hb
        · exact hfull b (mem_append_left _ hb)
        · rw [mem_singleton.mp hb]
          simp
      · simp [Clist.bytes, hq]

theorem acblocks_spec (n : Nat) {buf : List Byte} (h : buf.length ≤ n) :
    (acblocks n buf).flatMap (·.acData) = buf ∧ ∀ b ∈ acblocks n buf, b.acData ≠ [] := by
  induction n generalizing buf with
  | zero =>
    have hb : buf = [] := length_eq_zero_iff.mp (by omega)
    exact ⟨hb.symm, forall_mem_nil _⟩
  | succ n ih =>
    by_cases hb : buf = []
    · rw [acblocks, if_pos hb]
      exact ⟨hb.symm, forall_mem_nil _⟩
    · have hpos : 0 < buf.length := length_pos_iff.mpr hb
      obtain ⟨hbytes, hfull⟩ := @ih (buf.drop acbufsize) (by
        rw [length_drop, acbufsize]; omega)
      rw [acblocks, if_neg hb]
      refine ⟨?_, forall_mem_cons.mpr ⟨?_, hfull⟩⟩
      · rw [flatMap_cons, hbytes, take_append_drop]
      · intro hnil
        have hlen := congrArg List.length hnil
        rw [length_take, length_nil, acbufsize] at hlen
        omega

theorem bToQ_spec (buf : List Byte) (h : q.Wf) :
    (bToQ buf q).Wf ∧ (bToQ buf q).bytes = q.bytes ++ buf := by
  obtain ⟨hbytes, hfull⟩ := acblocks_spec buf.length (Nat.le_refl buf.length)
  have hb : (bToQ buf q).bytes = q.bytes ++ buf := by
    rw [Clist.bytes, bToQ, flatMap_append, hbytes]
    rfl
  refine ⟨⟨?_, ?_⟩, hb⟩
  · rw [hb, length_append, ← h.cc]
    rfl
  · intro b hmem
    rcases mem_append.mp hmem with hm | hm
    · exact h.full b hm
    · exact hfull b hm

theorem serWrite_spec (n : Nat) (h : q.Wf) :
    (serWrite n q).1.Wf ∧ (serWrite n q).2 ++ (serWrite n q).1.bytes = q.bytes := by
  obtain ⟨cc, blocks⟩ := q
  cases blocks with
  | nil => exact ⟨h, rfl⟩
  | cons acb bs =>
    have hcc : cc = acb.acData.length + (bs.flatMap (·.acData)).length := by
      have := h.cc
      simpa [Clist.bytes] using this
    have hbs : ∀ b ∈ bs, b.acData ≠ [] := fun b hb => h.full b (mem_cons_of_mem _ hb)
    rw [serWrite]
    dsimp only
    have hk : min n acb.acData.length ≤ acb.acData.length := Nat.min_le_right _ _
    generalize min n acb.acData.length = k at hk ⊢
    generalize hq' : ({ cCc := cc - k, blocks := if acb.acData.drop k = [] then bs else
      { acStart := acb.acStart + k, acData := acb.acData.drop k } :: bs } : Clist) = q'
    -- a block that has been written out is freed, another one stays with what is left of it
    have hbytes : q'.bytes = acb.acData.drop k ++ bs.flatMap (·.acData) := by
      rw [← hq', Clist.bytes]
      split
      · next hd => rw [hd, nil_append]
      · rfl
    refine ⟨⟨?_, ?_⟩, ?_⟩
    · rw [hbytes, length_append, length_drop, ← hq', hcc]
      dsimp only
      omega
    · rw [← hq']
      split
      · exact hbs
      · next hd => exact forall_mem_cons.mpr ⟨hd, hbs⟩
    · rw [hbytes, ← append_assoc, take_append_drop]
      rfl

theorem Clist.Wf.eq_empty (h : q.Wf) (h0 : q.cCc = 0) : q = {} := by
  obtain ⟨cc, blocks⟩ := q
  cases h0
  cases h.blocks_nil rfl
  rfl

theorem serWrite_lt {n : Nat} (hn : 1 ≤ n) (h : q.Wf) (h0 : q.cCc ≠ 0) :
    (serWrite n q).1.cCc < q.cCc := by
  obtain ⟨cc, blocks⟩ := q
  cases blocks with
  | nil => exact absurd h.cc h0
  | cons acb bs =>
    have hpos : 0 < acb.acData.length := length_pos_iff.mpr (h.full acb mem_cons_self)
    rw [serWrite]
    dsimp only at h0 ⊢
    omega

/-- As many rounds as there are characters, none of which writes nothing, empty the queue. -/
theorem serRounds_empties {ws : List Nat} (hws : ∀ n ∈ ws, 1 ≤ n) (h : q.Wf)
    (hlen : q.cCc ≤ ws.length) : serRounds ws q = ({}, q.bytes) := by
  induction ws generalizing q with
  | nil =>
    rw [h.eq_empty (Nat.le_zero.mp hlen)]
    rfl
  | cons n ws ih =>
    obtain ⟨hn, hws⟩ := forall_mem_cons.mp hws
    rw [serRounds]
    split
    · next h0 =>
      rw [h.eq_empty h0]
      rfl
    · next h0 =>
      have hlt := serWrite_lt hn h h0
      obtain ⟨hwf, hbytes⟩ := serWrite_spec n h
      rw [length_cons] at hlen
      dsimp only
      rw [ih hws hwf (by omega), ← hbytes]

/-- `ser_oproc` empties the queue: it has written all of it, in order. -/
theorem serOproc_spec (ws : List Nat) (h : q.Wf) : serOproc ws q = ({}, q.bytes) := by
  refine serRounds_empties (fun n hn => ?_) h (by simp)
  rcases mem_append.mp hn with hm | hm
  · obtain ⟨k, -, rfl⟩ := mem_map.mp hm
    exact Nat.le_max_left 1 k
  · rw [eq_of_mem_replicate hm]
    decide

/-! ## Any interleaving -/

def Clist.Fits (q : Clist) : Prop := ∀ b ∈ q.blocks, b.acStart + b.acData.length ≤ acbufsize

theorem putc_fits (c : Byte) (h : q.Fits) : (putc c q).Fits := by
  have hnew : ∀ b ∈ [({ acData := [c] } : Acblock)], b.acStart + b.acData.length ≤ acbufsize := by
    simp [acbufsize]
  unfold putc
  split
  · exact hnew
  split
  · exact h
  · next acb hlast =>
    split
    · intro b hb
      rcases mem_append.mp hb with hb | hb
      · exact h b hb
      · exact hnew b hb
    · next hroom =>
      intro b hb
      rcases mem_append.mp hb with hb | hb
      · exact h b (dropLast_subset _ hb)
      · rw [mem_singleton.mp hb]
        simp
        omega

theorem acblocks_fits (n : Nat) (buf : List Byte) :
    ∀ b ∈ acblocks n buf, b.acStart + b.acData.length ≤ acbufsize := by
  induction n generalizing buf with
  | zero => exact forall_mem_nil _
  | succ n ih =>
    rw [acblocks]
    split
    · exact forall_mem_nil _
    · refine forall_mem_cons.mpr ⟨?_, ih _⟩
      rw [Nat.zero_add, length_take]
      exact Nat.min_le_left _ _

theorem bToQ_fits (buf : List Byte) (h : q.Fits) : (bToQ buf q).Fits := by
  intro b hb
  rcases mem_append.mp hb with hb | hb
  · exact h b hb
  · exact acblocks_fits _ _ b hb

theorem serWrite_fits (n : Nat) (h : q.Fits) : (serWrite n q).1.Fits := by
  unfold serWrite
  split
  · exact h
  · next acb bs hq =>
    rw [Clist.Fits, hq] at h
    obtain ⟨hacb, hbs⟩ := forall_mem_cons.mp h
    dsimp only
    split
    · exact hbs
    · refine forall_mem_cons.mpr ⟨?_, hbs⟩
      dsimp only
      rw [length_drop]
      omega

theorem serRounds_spec (ws : List Nat) (h : q.Wf) (hf : q.Fits) :
    (serRounds ws q).1.Wf ∧ (serRounds ws q).1.Fits ∧
      (serRounds ws q).2 ++ (serRounds ws q).1.bytes = q.bytes := by
  induction ws generalizing q with
  | nil => exact ⟨h, hf, rfl⟩
  | cons n ws ih =>
    rw [serRounds]
    split
    · exact ⟨h, hf, rfl⟩
    · obtain ⟨hwf, hbytes⟩ := serWrite_spec n h
      obtain ⟨hwf', hf', hbytes'⟩ := ih hwf (serWrite_fits n hf)
      refine ⟨hwf', hf', ?_⟩
      rw [append_assoc, hbytes', hbytes]

inductive SerOp where
  | putc (c : Byte)
  | bToQ (buf : List Byte)
  | oproc (ws : List Nat)
  deriving DecidableEq, Repr

/-- A line with the characters put into its queue and those written to its descriptor so far. -/
structure SerLine where
  outq : Clist := {}
  queued : List Byte := []
  written : List Byte := []
  deriving DecidableEq, Repr

def SerLine.step (s : SerLine) : SerOp → SerLine
  | .putc c => { s with outq := Anp.putc c s.outq, queued := s.queued ++ [c] }
  | .bToQ buf => { s with outq := Anp.bToQ buf s.outq, queued := s.queued ++ buf }
  | .oproc ws =>
    let r := serRounds ws s.outq
    { s with outq := r.1, written := s.written ++ r.2 }

structure SerLine.Inv (s : SerLine) : Prop where
  wf : s.outq.Wf
  fits : s.outq.Fits
  fifo : s.written ++ s.outq.bytes = s.queued

theorem SerLine.Inv.step {s : SerLine} (h : s.Inv) (op : SerOp) : (s.step op).Inv := by
  cases op with
  | putc c =>
    obtain ⟨hwf, hbytes⟩ := putc_spec c h.wf
    refine ⟨hwf, putc_fits c h.fits, ?_⟩
    rw [SerLine.step, hbytes, ← append_assoc, h.fifo]
  | bToQ buf =>
    obtain ⟨hwf, hbytes⟩ := bToQ_spec buf h.wf
    refine ⟨hwf, bToQ_fits buf h.fits, ?_⟩
    rw [SerLine.step, hbytes, ← append_assoc, h.fifo]
  | oproc ws =>
    obtain ⟨hwf, hfits, hbytes⟩ := serRounds_spec ws h.wf h.fits
    refine ⟨hwf, hfits, ?_⟩
    rw [SerLine.step]
    rw [append_assoc, hbytes, h.fifo]

open Runs

/-- **The output queue is a FIFO**, in every run of `putc`, `b_to_q` and `ser_oproc`. -/
theorem serial_fifo {s : SerLine} (h : Reach (· = {}) (By SerLine.step fun _ _ => True) s) :
    s.written ++ s.outq.bytes = s.queued ∧ s.outq.cCc = (s.outq.blocks.map (·.acData.length)).sum ∧
      (s.outq.cCc = 0 → s.outq.blocks = []) ∧
      ∀ b ∈ s.outq.blocks, b.acStart + b.acData.length ≤ acbufsize := by
  have hinit : ∀ s : SerLine, s = {} → s.Inv := by
    rintro _ rfl
    exact ⟨.empty, forall_mem_nil _, rfl⟩
  have hinv : s.Inv := h.ops hinit fun s op hs _ => hs.step op
  refine ⟨hinv.fifo, ?_, hinv.wf.blocks_nil, hinv.fits⟩
  rw [hinv.wf.cc, Clist.bytes, length_flatMap]

/-- Sixty characters, of which `ser_oproc` has written the first eleven. -/
theorem serial_fifo_sixty :
    let s := [SerOp.bToQ (List.replicate 58 7), .putc 1, .putc 2, .oproc [0, 10, 1, 0]].foldl
      SerLine.step {}
    s.written.length = 11 ∧ s.written ++ s.outq.bytes = List.replicate 58 7 ++ [1, 2] := by
  have hstart : Reach (· = {}) (By SerLine.step fun _ _ => True) ({} : SerLine) := .start rfl
  have h := serial_fifo (hstart.foldl (l := [SerOp.bToQ (List.replicate 58 7), .putc 1, .putc 2,
    .oproc [0, 10, 1, 0]]) (MeetsAll.trivial _ _))
  exact ⟨by decide, h.1.trans (by decide)⟩

end Anp
