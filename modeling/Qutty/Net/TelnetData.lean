import Qutty.Net.TelnetReading

/-!
# Data on a Telnet connection

The bytes that one side writes are read by the other side.  Data comes out as it went in, if
both sides agree on binary mode or there is nothing in it that they take differently
(`dataTransparent_iff`).
-/

namespace Qutty
namespace Net
namespace Telnet

open Lib Lib.ByteOrder Lib.Transducer

section Data

variable (t : Telnet)

/-- A byte of data on the wire. -/
def encodeByte (binary : Bool) (c : UInt8) : List UInt8 :=
  if c = 255 then [255, 255] else if c = 13 ∧ binary = false then [13, 0] else [c]

/-- Binary mode of the writer, and of the reader. -/
def writesBinary : Bool := t.optStates .weBin = .active
def readsBinary : Bool := t.optStates .theyBin = .active

/-- The bytes that have been written. -/
def wire : List UInt8 := t.sent.flatMap Packet.bytes

theorem encodeByte_writable {c : UInt8} (h : t.isWritable c = true) :
    encodeByte t.writesBinary c = [c] := by
  simp only [isWritable, Bool.and_eq_true, Bool.or_eq_true, decide_eq_true_eq] at h
  rcases h with ⟨hiac, hbin | hcr⟩
  · simp [encodeByte, hiac, writesBinary, hbin]
  · simp [encodeByte, hiac, hcr]

theorem encodeByte_escaped {c : UInt8} (h : t.isWritable c = false) :
    encodeByte t.writesBinary c = (escape c).bytes := by
  by_cases hiac : c = 255
  · simp [encodeByte, escape, hiac, Packet.bytes]
  · have hcr : c = 13 ∧ t.optStates .weBin ≠ .active := by
      simp [isWritable, hiac] at h
      exact ⟨h.2, h.1⟩
    simp [encodeByte, escape, hcr.1, hcr.2, writesBinary, Packet.bytes]

theorem takeWhile_writable (buf : List UInt8) :
    (buf.takeWhile t.isWritable).flatMap (encodeByte t.writesBinary) =
      buf.takeWhile t.isWritable := by
  induction buf with
  | nil => rfl
  | cons c buf ih =>
      by_cases h : t.isWritable c = true
      · simp [h, ih, encodeByte_writable t h]
      · simp [h]

theorem takeWhile_escaped (buf : List UInt8) :
    (buf.takeWhile fun b => !t.isWritable b).flatMap (encodeByte t.writesBinary) =
      ((buf.takeWhile fun b => !t.isWritable b).map escape).flatMap Packet.bytes := by
  induction buf with
  | nil => rfl
  | cons c buf ih =>
      by_cases h : t.isWritable c = true
      · simp [h]
      · simp only [Bool.not_eq_true] at h
        simp [h, ih, encodeByte_escaped t h]

/-- **The loop of `telnet_send`** writes one byte of data after the other. -/
theorem sendPackets_bytes (buf : List UInt8) :
    (t.sendPackets buf).flatMap Packet.bytes = buf.flatMap (encodeByte t.writesBinary) := by
  fun_induction sendPackets t buf with
  | case1 => rfl
  | case2 c cs plain rest escaped ih =>
      have hplain : plain ++ rest = c :: cs := List.takeWhile_append_dropWhile
      have hrest : escaped ++ rest.dropWhile (fun b => !t.isWritable b) = rest :=
        List.takeWhile_append_dropWhile
      have hpackets : (escaped.map escape).flatMap Packet.bytes =
          escaped.flatMap (encodeByte t.writesBinary) := (takeWhile_escaped t rest).symm
      have hwritten : plain.flatMap (encodeByte t.writesBinary) = plain :=
        takeWhile_writable t (c :: cs)
      calc (Packet.plain plain :: escaped.map escape ++ t.sendPackets _).flatMap Packet.bytes
          = plain ++ ((escaped.map escape).flatMap Packet.bytes ++
              (t.sendPackets (rest.dropWhile fun b => !t.isWritable b)).flatMap Packet.bytes) := by
            simp [Packet.bytes]
        _ = plain.flatMap (encodeByte t.writesBinary) ++
              (escaped ++ rest.dropWhile fun b => !t.isWritable b).flatMap
                (encodeByte t.writesBinary) := by
            rw [ih, hpackets, hwritten, List.flatMap_append]
        _ = (c :: cs).flatMap (encodeByte t.writesBinary) := by
            rw [hrest, ← List.flatMap_append, hplain]

/-- What a sequence of calls writes. -/
theorem send_wire (hconn : t.connected = true) (bufs : List (List UInt8)) :
    (bufs.foldl send t).wire = t.wire ++ bufs.flatten.flatMap (encodeByte t.writesBinary) := by
  induction bufs generalizing t with
  | nil => simp [wire]
  | cons buf bufs ih =>
      have hsend : t.send buf = { t with sent := t.sent ++ t.sendPackets buf } := by
        simp only [send, hconn, ↓reduceIte]
      have hwire : (t.send buf).wire = t.wire ++ buf.flatMap (encodeByte t.writesBinary) := by
        rw [hsend, ← sendPackets_bytes]
        exact List.flatMap_append
      have hbinary : (t.send buf).writesBinary = t.writesBinary := by rw [hsend]; rfl
      have hconn' : (t.send buf).connected = true := by rw [hsend]; exact hconn
      rw [List.foldl_cons, ih _ hconn', hwire, hbinary]
      simp

/-- The reader between two bytes of data. -/
structure Ready (binary : Bool) (t : Telnet) : Prop where
  state : t.state = .topLevel
  synch : t.inSynch = false
  mode : t.readsBinary = binary

/-- A byte of data in the state of rest; nothing but the state changes. -/
theorem Ready.readByte {binary : Bool} {c : UInt8} (h : Ready binary t) (hiac : c ≠ 255) :
    t.readByte c =
      ({ t with state := if c = 13 ∧ binary = false then .seenCr else .topLevel }, [c]) := by
  have hmode : (t.optStates .theyBin ≠ .active) ↔ binary = false := by
    rw [← h.mode, readsBinary, decide_eq_false_iff_not]
  simp [Telnet.readByte, h.state, h.synch, hiac, hmode]

/-- The doubled IAC. -/
theorem read_iac (h : t.state = .topLevel ∨ t.state = .seenCr) :
    run Telnet.readByte t [255, 255] = ({ t with state := .topLevel }, [255]) := by
  rcases h with h | h <;> simp [Telnet.readByte, h]

theorem Ready.topLevel {binary : Bool} (h : Ready binary t) : { t with state := .topLevel } = t := by
  rw [← h.state]

/-- NUL after CR, for a reader that is not in binary mode. -/
theorem Ready.read_cr (h : Ready false t) : run Telnet.readByte t [13, 0] = (t, [13]) := by
  have hcr : t.readByte 13 = ({ t with state := .seenCr }, [13]) := by
    rw [h.readByte t (by decide)]
    rfl
  simp only [run_cons, run_nil, hcr]
  simp only [Telnet.readByte, and_self, ↓reduceIte, h.topLevel]
  rfl

/-- **Both sides agree.** -/
theorem reads_agreeing (binary : Bool) (c : UInt8) :
    Reads Telnet.readByte (Ready binary) (encodeByte binary c) [c] := by
  intro t h
  by_cases hiac : c = 255
  · subst hiac
    simp only [encodeByte, ↓reduceIte, read_iac t (.inl h.state), h.topLevel]
    exact ⟨h, trivial⟩
  · by_cases hcr : c = 13 ∧ binary = false
    · obtain ⟨rfl, rfl⟩ := hcr
      have henc : encodeByte false 13 = [13, 0] := rfl
      rw [henc, h.read_cr]
      exact ⟨h, rfl⟩
    · simp only [encodeByte, hiac, hcr, ↓reduceIte, run_cons, run_nil, h.readByte t hiac,
        h.topLevel]
      exact ⟨h, rfl⟩

/-- Only the reader is in binary mode: it takes NUL as data. -/
theorem reads_toBinary (c : UInt8) :
    Reads Telnet.readByte (Ready true) (encodeByte false c) (if c = 13 then [13, 0] else [c]) := by
  intro t h
  by_cases hcr : c = 13
  · subst hcr
    have henc : encodeByte false 13 = [13, 0] := rfl
    have hread : run Telnet.readByte t [13, 0] = (t, [13, 0]) := by
      simp [h.readByte t (by decide : (13 : UInt8) ≠ 255),
        h.readByte t (by decide : (0 : UInt8) ≠ 255), h.topLevel]
    rw [henc, hread]
    exact ⟨h, rfl⟩
  · obtain ⟨hready, hout⟩ := reads_agreeing true c t h
    have henc : encodeByte false c = encodeByte true c := by simp [encodeByte, hcr]
    rw [henc, if_neg hcr]
    exact ⟨hready, hout⟩

/-- What a reader makes of data that is not written for it: it leaves out a NUL after CR. -/
def dropNul : Bool → List UInt8 → List UInt8
  | _, [] => []
  | after, c :: cs =>
      if after = true ∧ c = 0 then dropNul false cs else c :: dropNul (decide (c = 13)) cs

theorem dropNul_length (after : Bool) (data : List UInt8) :
    (dropNul after data).length ≤ data.length := by
  induction data generalizing after with
  | nil => simp [dropNul]
  | cons c cs ih =>
      simp only [dropNul]
      split_ifs
      · exact (ih false).trans (Nat.le_succ _)
      · exact Nat.succ_le_succ (ih _)

/-- Nothing is left out exactly if no NUL follows a CR. -/
theorem dropNul_eq_iff (after : Bool) (data : List UInt8) :
    dropNul after data = data ↔
      ¬[13, 0] <:+: data ∧ (after = true → data.head? ≠ some 0) := by
  induction data generalizing after with
  | nil => simp [dropNul]
  | cons c cs ih =>
      have hinfix : [13, 0] <:+: c :: cs ↔ (c = 13 ∧ cs.head? = some 0) ∨ [13, 0] <:+: cs := by
        rw [List.infix_cons_iff, List.cons_prefix_cons]
        cases cs with
        | nil => simp
        | cons d cs =>
            simp [eq_comm]
      by_cases hdrop : after = true ∧ c = 0
      · have hlength : dropNul after (c :: cs) ≠ c :: cs := by
          intro heq
          have hshort := dropNul_length false cs
          have hsame := congrArg List.length heq
          simp only [dropNul, if_pos hdrop, List.length_cons] at hsame
          omega
        have hnul : (c :: cs).head? = some 0 := congrArg some hdrop.2
        exact iff_of_false hlength fun h => h.2 hdrop.1 hnul
      · have hhead : after = true → (c :: cs).head? ≠ some 0 := by
          intro h hc
          exact hdrop ⟨h, by simpa using hc⟩
        simp only [dropNul, if_neg hdrop, List.cons.injEq, true_and, ih, hinfix, not_or, not_and,
          decide_eq_true_eq]
        exact ⟨fun h => ⟨⟨h.2, h.1⟩, hhead⟩, fun h => ⟨h.1.2, h.1.1⟩⟩

/-- Only the writer is in binary mode. -/
theorem run_fromBinary (data : List UInt8) (hsynch : t.inSynch = false)
    (hmode : t.readsBinary = false) (hrest : t.state = .topLevel ∨ t.state = .seenCr) :
    (run Telnet.readByte t (data.flatMap (encodeByte true))).2 =
      dropNul (decide (t.state = .seenCr)) data := by
  induction data generalizing t with
  | nil => rfl
  | cons c data ih =>
      have hbin : t.optStates .theyBin ≠ .active := by simpa [readsBinary] using hmode
      rw [List.flatMap_cons, run_append]
      by_cases hiac : c = 255
      · subst hiac
        have henc : encodeByte true 255 = [255, 255] := rfl
        have hrun := ih { t with state := .topLevel } hsynch hmode (.inl rfl)
        rw [henc, read_iac t hrest]
        simp [dropNul, hrun]
      · have henc : encodeByte true c = [c] := by simp [encodeByte, hiac]
        rw [henc, run_cons, run_nil]
        by_cases hnul : t.state = .seenCr ∧ c = 0
        · have hread : t.readByte c = ({ t with state := .topLevel }, []) := by
            simp [Telnet.readByte, hnul]
          have hrun := ih { t with state := .topLevel } hsynch hmode (.inl rfl)
          rw [hread]
          simp [dropNul, hnul, hrun]
        · have hread : t.readByte c =
              ({ t with state := if c = 13 then .seenCr else .topLevel }, [c]) := by
            rcases hrest with h | h
            · simp [Telnet.readByte, h, hiac, hsynch, hbin]
            · have hc : c ≠ 0 := fun hc => hnul ⟨h, hc⟩
              simp [Telnet.readByte, h, hc, hiac, hsynch, hbin]
          by_cases hcr : c = 13
          · have hrun := ih { t with state := .seenCr } hsynch hmode (.inr rfl)
            subst hcr
            simp [hread, dropNul, hrun]
          · have hrun := ih { t with state := .topLevel } hsynch hmode (.inl rfl)
            simp [hread, dropNul, hcr, hnul, hrun]

/-- What a reader shows of the data that is written. -/
def received (writes reads : Bool) (data : List UInt8) : List UInt8 :=
  if writes = reads then data
  else if writes then dropNul false data
  else data.flatMap fun c => if c = 13 then [13, 0] else [c]

theorem run_data (binary : Bool) (data : List UInt8) (hrest : t.state = .topLevel)
    (hsynch : t.inSynch = false) :
    (run Telnet.readByte t (data.flatMap (encodeByte binary))).2 =
      received binary t.readsBinary data := by
  have hready : Ready t.readsBinary t := ⟨hrest, hsynch, rfl⟩
  by_cases hagree : binary = t.readsBinary
  · rw [hagree]
    have hreads := run_flatMap fun c (_ : c ∈ data) => reads_agreeing t.readsBinary c
    rw [(hreads t hready).2]
    simp [received]
  · cases binary with
    | true =>
        have hmode : t.readsBinary = false := by simpa using Ne.symm hagree
        rw [run_fromBinary t data hsynch hmode (.inl hrest)]
        simp [received, hmode, hrest]
    | false =>
        have hmode : t.readsBinary = true := by simpa using Ne.symm hagree
        have hreads := run_flatMap fun c (_ : c ∈ data) => reads_toBinary c
        rw [(hreads t (hmode ▸ hready)).2]
        simp [received, hmode]

theorem flatMap_cr_eq_iff (data : List UInt8) :
    data.flatMap (fun c => if c = 13 then [13, 0] else [c]) = data ↔ 13 ∉ data := by
  have hlength : ∀ data : List UInt8,
      data.length ≤ (data.flatMap fun c => if c = 13 then [13, 0] else [c]).length := by
    intro data
    induction data with
    | nil => simp
    | cons c cs ih =>
        rw [List.flatMap_cons, List.length_append, List.length_cons]
        split_ifs <;> simp only [List.length_cons, List.length_nil] <;> omega
  induction data with
  | nil => simp
  | cons c cs ih =>
      by_cases hcr : c = 13
      · subst hcr
        have hlong := hlength cs
        have hne : List.flatMap (fun c => if c = 13 then [13, 0] else [c]) (13 :: cs) ≠ 13 :: cs := by
          intro heq
          have hsame := congrArg List.length heq
          simp only [List.flatMap_cons, ↓reduceIte, List.length_append, List.length_cons,
            List.length_nil] at hsame
          omega
        simp only [hne, List.mem_cons, true_or, not_true_eq_false]
      · simp [hcr, Ne.symm hcr, ih]

theorem received_eq_iff (writes reads : Bool) (data : List UInt8) :
    received writes reads data = data ↔
      writes = reads ∨ (writes = true ∧ ¬[13, 0] <:+: data) ∨ (writes = false ∧ 13 ∉ data) := by
  by_cases hagree : writes = reads
  · simp [received, hagree]
  · cases writes with
    | true => simp [received, hagree, dropNul_eq_iff]
    | false => simp [received, hagree, flatMap_cr_eq_iff]

/-- **The data comes out as it went in** exactly if both sides agree on binary mode, or
nothing in it is taken differently, whatever the calls and the pieces. -/
theorem dataTransparent_iff (s r : Telnet) (bufs pieces : List (List UInt8))
    (hconn : s.connected = true) (hrest : r.state = .topLevel) (hsynch : r.inSynch = false)
    (hwire : (bufs.foldl send s).wire = s.wire ++ pieces.flatten) :
    (pieces.foldl (fun r data => r.receive false data) r).shown = r.shown ++ bufs.flatten ↔
      s.writesBinary = r.readsBinary ∨
        (s.writesBinary = true ∧ ¬[13, 0] <:+: bufs.flatten) ∨
          (s.writesBinary = false ∧ 13 ∉ bufs.flatten) := by
  have hpieces : pieces.flatten = bufs.flatten.flatMap (encodeByte s.writesBinary) := by
    rw [send_wire s hconn] at hwire
    exact (List.append_cancel_left hwire).symm
  have hread : pieces.foldl (fun r data => r.receive false data) r =
      r.doTelnetRead pieces.flatten := doTelnetRead_pieces r pieces
  have hshown : (run Telnet.readByte r pieces.flatten).1.shown = r.shown := run_shown r _
  have hresult : (pieces.foldl (fun r data => r.receive false data) r).shown =
      r.shown ++ received s.writesBinary r.readsBinary bufs.flatten := by
    simp only [hread, doTelnetRead_eq, cWrite, hshown]
    rw [hpieces, run_data r _ _ hrest hsynch]
  rw [hresult, List.append_cancel_left_eq, received_eq_iff]

theorem dataTransparent_sample :
    ([[65], [13, 0, 255], [255]].foldl (fun r data => r.receive false data)
      (idle passiveConf 80 24)).shown = [65, 13, 255] :=
  (dataTransparent_iff (idle passiveConf 80 24) (idle passiveConf 80 24) [[65, 13], [255]]
    [[65], [13, 0, 255], [255]] rfl rfl rfl (send_wire _ rfl _)).mpr (.inl rfl)

end Data

end Telnet
end Net
end Qutty
